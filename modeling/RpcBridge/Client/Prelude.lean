/-!
# Client/Prelude — the runtime that every client starts with

The code that generated functions rely on: the two conversions of calendar dates, the settings of
the client, and the request that a call stub sends.
-/

namespace RpcBridge.Client

/-- The lines of the built-in runtime. -/
def preludeLines : List String :=
  ["// Runtime support for generated typewire clients.",
   "",
   "const LOCAL_OFFSET_MS: number = new Date().getTimezoneOffset() * 60000;",
   "",
   "// A calendar date on the wire (\"YYYY-MM-DD\") to a local-midnight Date.",
   "export function strToDate(value: string): Date \x7b",
   "    const utc = new Date(value);",
   "    return new Date(utc.getUTCFullYear(), utc.getUTCMonth(), utc.getUTCDate());",
   "\x7d",
   "",
   "// A local Date to its calendar day on the wire (\"YYYY-MM-DD\").",
   "export function dateToStr(value: Date): string \x7b",
   "    return new Date(value.getTime() - LOCAL_OFFSET_MS).toISOString().slice(0, 10);",
   "\x7d",
   "",
   "export function setHeaders(target: HeadersInit, extra: Record<string, string>) \x7b",
   "    if (target instanceof Headers) \x7b",
   "        for (const name in extra) \x7b",
   "            target.set(name, extra[name]);",
   "        \x7d",
   "    \x7d else if (Array.isArray(target)) \x7b",
   "        for (const name in extra) \x7b",
   "            target.push([name, extra[name]]);",
   "        \x7d",
   "    \x7d else if (target !== undefined) \x7b",
   "        for (const name in extra) \x7b",
   "            target[name] = extra[name];",
   "        \x7d",
   "    \x7d",
   "\x7d",
   "",
   "interface RpcConfig \x7b",
   "    url?: string;",
   "    initFetch?: (init: RequestInit) => RequestInit;",
   "    readResponse?: (response: Response) => void;",
   "\x7d",
   "",
   "export let rpcConfig: RpcConfig = \x7b\x7d;",
   "",
   "export class AbortableRequest<T> \x7b",
   "    public $promise: Promise<T>;",
   "    private controller: AbortController;",
   "",
   "    constructor($promise: Promise<T>, controller: AbortController) \x7b",
   "        this.$promise = $promise;",
   "        this.controller = controller;",
   "    \x7d",
   "",
   "    public abort() \x7b",
   "        this.controller.abort();",
   "    \x7d",
   "\x7d",
   "",
   "let nextRequestId = 1;",
   "",
   "function send<U>(init: RequestInit, primitiveToResult: (data: any) => U): Promise<U> \x7b",
   "    return new Promise((resolve, reject) => \x7b",
   "        if (rpcConfig.url === undefined) \x7b",
   "            reject(\"rpcConfig.url is not initialized\");",
   "            return;",
   "        \x7d",
   "        fetch(rpcConfig.url, init)",
   "            .then((response) => \x7b",
   "                if (rpcConfig.readResponse !== undefined) \x7b",
   "                    rpcConfig.readResponse(response);",
   "                \x7d",
   "                return response.json();",
   "            \x7d)",
   "            .then((body) => \x7b",
   "                if (body.result === undefined) \x7b",
   "                    reject(body.error);",
   "                \x7d else \x7b",
   "                    resolve(primitiveToResult(body.result));",
   "                \x7d",
   "            \x7d, reject);",
   "    \x7d);",
   "\x7d",
   "",
   "export function abortableFetch<T, U>(",
   "    method: string,",
   "    params: T,",
   "    paramsToPrimitive: (params: T) => any,",
   "    primitiveToResult: (data: any) => U,",
   "): AbortableRequest<U> \x7b",
   "    const controller = new AbortController();",
   "    const headers = new Headers();",
   "    setHeaders(headers, \x7b",
   "        \"Accept\": \"application/json\",",
   "        \"Content-Type\": \"application/json;charset=UTF-8\",",
   "    \x7d);",
   "    let init: RequestInit = \x7b",
   "        method: \"POST\",",
   "        headers: headers,",
   "        body: JSON.stringify(\x7b",
   "            id: nextRequestId++,",
   "            method: method,",
   "            params: paramsToPrimitive(params),",
   "        \x7d),",
   "    \x7d;",
   "    if (rpcConfig.initFetch !== undefined) \x7b",
   "        init = rpcConfig.initFetch(init);",
   "    \x7d",
   "    init.signal = controller.signal;",
   "    return new AbortableRequest<U>(send(init, primitiveToResult), controller);",
   "\x7d"]

/-- The text of the built-in runtime. -/
def prelude : String := "".intercalate (preludeLines.map (· ++ "\n"))

end RpcBridge.Client
